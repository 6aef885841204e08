import SchemaBindings.Bundle
import SchemaBindings.Proofs.PointerTexts

/-! # What a schema becomes in a bundle

`Becomes` says what a node of a document is turned into, without saying how. All
stays but the references: one is kept, with another text, or a copy of what it
led to stands in its place. Keywords beside a reference that is copied move, with
all below them, into the second arm of an `allOf`. So what a pointer leads to in
a schema stands in its form too, and under the same pointer unless the way leads
out of a node whose reference was copied. -/

namespace SchemaBindings.Bundle

/-- The document that a reference in a document leads to. -/
def targetDocument (t : FileTree) (doc : Path) (target : RefTarget) : Path :=
  match target.file? with
  | none => doc
  | some file => documentKey t (doc.directory.join file)

/-- The document that is known under a path: one of those known from the start, or what is on the
disk. -/
def Source (t : FileTree) (known : DocumentCache) (doc : Path) (v : Json) : Prop :=
  known.find? doc = some v ∨ known.find? doc = none ∧
    ∃ p : Path, p.steps = doc.steps ∧ t.canonical? p = some p ∧ readDocument t p = .ok v

/-- The node of a known document that a pointer leads to. A whole document is taken without the
keywords that only mean something at its root. -/
def Original (t : FileTree) (known : DocumentCache) (doc : Path) (p : Pointer) (n : Json) : Prop :=
  ∃ v u, Source t known doc v ∧ v.at? p = some u ∧
    n = if p.isRoot then withoutRootKeywords u else u

/-- What the value under a keyword is, seen with the value: names are given by objects only. -/
def kindOf (key : String) (v : Json) : ChildKind :=
  match childKind key, v with
  | .data, _ => .data
  | .namedSchemas, .object _ => .namedSchemas
  | _, _ => .schema

/-- What becomes of a node of a document, read as data, as named schemas or as a schema. `Kept`
says what is known of a reference in a document that is kept and of the place it is given. -/
inductive Becomes (t : FileTree) (known : DocumentCache) (Kept : Path → String → Pointer → Prop) :
    ChildKind → Path → Json → Json → Prop where
  | data {doc : Path} {v : Json} : Becomes t known Kept .data doc v v
  | leaf {doc : Path} {v : Json} (hm : v.members? = none) (hi : v.items? = none) :
      Becomes t known Kept .schema doc v v
  | array {doc : Path} {xs ys : List Json} (hlen : ys.length = xs.length)
      (h : ∀ (i : Nat) x y, xs[i]? = some x → ys[i]? = some y → Becomes t known Kept .schema doc x y) :
      Becomes t known Kept .schema doc (.array xs) (.array ys)
  | named {doc : Path} {ms ns : Members} (hnames : ns.names = ms.names)
      (h : ∀ name v w, ms.get? name = some v → ns.get? name = some w →
        Becomes t known Kept .schema doc v w) :
      Becomes t known Kept .namedSchemas doc (.object ms) (.object ns)
  | plain {doc : Path} {ms ns : Members} (href : refText? (.object ms) = none)
      (hnames : ns.names = ms.names)
      (h : ∀ key v w, ms.get? key = some v → ns.get? key = some w →
        Becomes t known Kept (kindOf key v) doc v w) :
      Becomes t known Kept .schema doc (.object ms) (.object ns)
  | kept {doc : Path} {ms ns : Members} {reference : String} {location : Pointer}
      (href : refText? (.object ms) = some reference) (hkept : Kept doc reference location)
      (hnames : ns.names = ms.names) (htext : ns.get? "$ref" = some (.string location.fragment))
      (h : ∀ key v w, key ≠ "$ref" → ms.get? key = some v → ns.get? key = some w →
        Becomes t known Kept (kindOf key v) doc v w) :
      Becomes t known Kept .schema doc (.object ms) (.object ns)
  | copied {doc : Path} {reference : String} {target : RefTarget} {n w : Json}
      (hparse : RefTarget.parse reference = .ok target)
      (hn : Original t known (targetDocument t doc target) target.pointer n)
      (h : Becomes t known Kept .schema (targetDocument t doc target) n w) :
      Becomes t known Kept .schema doc (.object [("$ref", .string reference)]) w
  | beside {doc : Path} {ms ns : Members} {reference : String} {target : RefTarget} {n w : Json}
      (href : refText? (.object ms) = some reference) (hmore : 1 < ms.length)
      (hparse : RefTarget.parse reference = .ok target)
      (hn : Original t known (targetDocument t doc target) target.pointer n)
      (hcopy : Becomes t known Kept .schema (targetDocument t doc target) n w)
      (hnames : ns.names = (ms.remove "$ref").names)
      (h : ∀ key v w, (ms.remove "$ref").get? key = some v → ns.get? key = some w →
        Becomes t known Kept (kindOf key v) doc v w) :
      Becomes t known Kept .schema doc (.object ms)
        (.object [("allOf", .array [w, .object ns])])

variable {t : FileTree} {known : DocumentCache} {Kept : Path → String → Pointer → Prop}

/-- A node had a reference, and what it became has none: a copy stands in its place. -/
def Parted (v w : Json) : Prop := (refText? v).isSome = true ∧ refText? w = none

/-- On the way from a node, the tokens lead on from one whose reference was copied; `before` leads
to that node and `token` out of it. -/
structure PartedAt (v w : Json) (before : List String) (token : String) (after tokens : List String) :
    Prop where
  split : tokens = before ++ token :: after
  parted : ∃ a b, v.at? ⟨before⟩ = some a ∧ w.at? ⟨before⟩ = some b ∧ Parted a b

/-- Some tokens lead through no node whose reference was copied. -/
def Whole (v w : Json) (tokens : List String) : Prop :=
  ∀ before token after, ¬ PartedAt v w before token after tokens

/-- The tokens lead to no text of a reference. -/
def ToNode (v : Json) (tokens : List String) : Prop :=
  ∀ before token a, tokens = before ++ [token] → v.at? ⟨before⟩ = some a →
    (refText? a).isSome = true → Pointer.unescapeToken token ≠ "$ref"

/-- The last step of a way to a node: none, or the one to the text of the reference that a schema
is. -/
def Closing (a : Json) (rest : List String) : Prop :=
  rest = [] ∨ (refText? a).isSome = true ∧
    ∃ token, rest = [token] ∧ Pointer.unescapeToken token = "$ref"

/-- A way leads to no text of a reference, or does so with its last step only. -/
theorem exists_toNode {v n : Json} {tokens : List String} (h : v.at? ⟨tokens⟩ = some n) :
    ∃ way rest a, tokens = way ++ rest ∧ v.at? ⟨way⟩ = some a ∧ a.at? ⟨rest⟩ = some n ∧
      ToNode v way ∧ Closing a rest := by
  by_cases hnode : ToNode v tokens
  · exact ⟨tokens, [], n, (List.append_nil _).symm, h, rfl, hnode, Or.inl rfl⟩
  · unfold ToNode at hnode
    push Not at hnode
    obtain ⟨before, token, a, rfl, ha, hsome, htoken⟩ := hnode
    have hlast := h
    rw [Json.at?_append, ha, Option.bind_some] at hlast
    refine ⟨before, [token], a, rfl, ha, hlast, ?_, Or.inr ⟨hsome, token, rfl, htoken⟩⟩
    -- The text of another reference is no schema that has one.
    rintro above last b rfl hb hb' hlast'
    obtain ⟨reference, href⟩ := Option.isSome_iff_exists.mp hb'
    rw [Json.at?_append, hb, Option.bind_some, Json.at?_cons] at ha
    cases b with
    | object ms =>
      rw [Pointer.step?, hlast', refText?_eq_some.mp href] at ha
      cases ha
      cases hsome
    | _ => cases href

theorem PartedAt.cons_iff {v w u x : Json} {token out : String} {before after rest : List String}
    (hu : Pointer.step? v token = some u) (hx : Pointer.step? w token = some x) :
    PartedAt v w (token :: before) out after (token :: rest) ↔ PartedAt u x before out after rest := by
  have hv : v.at? ⟨token :: before⟩ = u.at? ⟨before⟩ := by
    rw [Json.at?_cons, hu, Option.bind_some]
  have hw : w.at? ⟨token :: before⟩ = x.at? ⟨before⟩ := by
    rw [Json.at?_cons, hx, Option.bind_some]
  constructor
  · rintro ⟨hsplit, hparted⟩
    rw [hv, hw] at hparted
    exact ⟨(List.cons.inj hsplit).2, hparted⟩
  · rintro ⟨rfl, hparted⟩
    rw [← hv, ← hw] at hparted
    exact ⟨rfl, hparted⟩

theorem ToNode.tail {v u : Json} {token : String} {rest : List String} (h : ToNode v (token :: rest))
    (hu : Pointer.step? v token = some u) : ToNode u rest := by
  intro before out a hsplit ha
  refine h (token :: before) out a (by rw [hsplit]; rfl) ?_
  rw [Json.at?_cons, hu, Option.bind_some, ha]

/-- The first of the tokens leads to no text of a reference, for it leads on from there or is the
last one. -/
theorem ToNode.not_text {v u n : Json} {token : String} {rest : List String}
    (h : ToNode v (token :: rest)) (hu : Pointer.step? v token = some u)
    (hn : u.at? ⟨rest⟩ = some n) (hsome : (refText? v).isSome = true) :
    Pointer.unescapeToken token ≠ "$ref" := by
  cases rest with
  | nil => exact h [] token v rfl rfl hsome
  | cons next rest =>
    intro htoken
    obtain ⟨reference, href⟩ := Option.isSome_iff_exists.mp hsome
    cases v with
    | object ms =>
      rw [Pointer.step?, htoken, refText?_eq_some.mp href] at hu
      cases hu
      rw [Json.at?_cons] at hn
      cases hn
    | _ => cases href

/-- A copy and what stood beside the reference to it. -/
theorem at?_arms (copy siblings : Json) (tokens : List String) :
    (Json.object [("allOf", .array [copy, siblings])]).at? ⟨"allOf" :: "0" :: tokens⟩ =
        copy.at? ⟨tokens⟩ ∧
      (Json.object [("allOf", .array [copy, siblings])]).at? ⟨"allOf" :: "1" :: tokens⟩ =
        siblings.at? ⟨tokens⟩ := by
  have hall (v : Json) : Pointer.step? (.object [("allOf", v)]) "allOf" = some v := by
    have hname : Pointer.unescapeToken "allOf" = "allOf" := by decide
    rw [Pointer.step?, hname, OrderedMap.get?_cons, if_pos rfl]
  have hzero : Pointer.step? (.array [copy, siblings]) "0" = some copy :=
    Pointer.step?_toString (n := 0) (by decide)
  have hone : Pointer.step? (.array [copy, siblings]) "1" = some siblings :=
    Pointer.step?_toString (n := 1) (by decide)
  constructor
  · rw [Json.at?_cons, hall, Option.bind_some, Json.at?_cons, hzero, Option.bind_some]
  · rw [Json.at?_cons, hall, Option.bind_some, Json.at?_cons, hone, Option.bind_some]

theorem exists_get?_of_names {ms ns : Members} (h : ns.names = ms.names) {key : String} {v : Json}
    (hv : ms.get? key = some v) : ∃ w, ns.get? key = some w := by
  rw [← Option.isSome_iff_exists, Option.isSome_iff_ne_none, ne_eq, OrderedMap.get?_eq_none, h,
    ← OrderedMap.get?_eq_none, hv]
  exact fun hnone => by cases hnone

theorem Becomes.eq_of_string {doc : Path} {text : String} {w : Json}
    (h : Becomes t known Kept .schema doc (.string text) w) : w = .string text := by
  cases h
  rfl

/-- What a schema does not have its form does not have, unless the schema is but a reference. -/
theorem Becomes.step?_eq_none {kind : ChildKind} {doc : Path} {ms : Members} {w : Json}
    {token : String} (h : Becomes t known Kept kind doc (.object ms) w)
    (hnone : Pointer.step? (.object ms) token = none) (hall : Pointer.unescapeToken token ≠ "allOf")
    (halone : ∀ reference, ms ≠ [("$ref", .string reference)]) : Pointer.step? w token = none := by
  have hsame {ns : Members} (hnames : ns.names = ms.names) :
      Pointer.step? (.object ns) token = none := by
    rw [Pointer.step?, OrderedMap.get?_eq_none] at hnone ⊢
    rwa [hnames]
  cases h with
  | data => exact hnone
  | leaf hm => cases hm
  | named hnames => exact hsame hnames
  | plain _ hnames => exact hsame hnames
  | kept _ _ hnames => exact hsame hnames
  | copied => exact absurd rfl (halone _)
  | beside =>
    rw [Pointer.step?, OrderedMap.get?_cons, if_neg hall]
    rfl

/-- The forms of two nodes, one a token below the other, stand so too; or the first one's
reference was copied, and the second stands in the second arm beside the copy. -/
theorem Becomes.step {kind : ChildKind} {doc : Path} {v w n : Json} {token : String}
    (h : Becomes t known Kept kind doc v w) (hv : v.Proper) (hn : Pointer.step? v token = some n)
    (hnode : (refText? v).isSome = true → Pointer.unescapeToken token ≠ "$ref") :
    (¬ Parted v w ∧ ∃ kind' x, Pointer.step? w token = some x ∧ Becomes t known Kept kind' doc n x) ∨
    (Parted v w ∧ (Pointer.unescapeToken token ≠ "allOf" → Pointer.step? w token = none) ∧
      ∃ kind' x, w.at? ⟨["allOf", "1", token]⟩ = some x ∧ Becomes t known Kept kind' doc n x) := by
  cases h with
  | data =>
    left
    refine ⟨fun ⟨hsome, hnone⟩ => ?_, _, n, hn, .data⟩
    rw [hnone] at hsome
    cases hsome
  | leaf hm hi =>
    cases v with
    | object ms => cases hm
    | array xs => cases hi
    | _ => cases hn
  | array hlen hitems =>
    obtain ⟨i, hi, hx⟩ := Option.bind_eq_some_iff.mp hn
    obtain ⟨hlt, -⟩ := List.getElem?_eq_some_iff.mp hx
    have hy := List.getElem?_eq_getElem (hlen ▸ hlt)
    have hstep : Pointer.step? (.array _) token = some _ := Option.bind_eq_some_iff.mpr ⟨i, hi, hy⟩
    refine Or.inl ⟨fun hparted => ?_, _, _, hstep, hitems i _ _ hx hy⟩
    cases hparted.1
  | @named _ ms ns hnames hmembers =>
    obtain ⟨x, hx⟩ := exists_get?_of_names hnames hn
    refine Or.inl ⟨fun ⟨hsome, hnone⟩ => ?_, _, x, hx, hmembers _ _ _ hn hx⟩
    -- A schema of this name is a text here, and a text becomes itself.
    obtain ⟨text, htext⟩ := Option.isSome_iff_exists.mp hsome
    have htext := refText?_eq_some.mp htext
    obtain ⟨y, hy⟩ := exists_get?_of_names hnames htext
    rw [Becomes.eq_of_string (hmembers _ _ _ htext hy)] at hy
    rw [refText?_eq_some.mpr hy] at hnone
    cases hnone
  | @plain _ ms ns href hnames hmembers =>
    obtain ⟨x, hx⟩ := exists_get?_of_names hnames hn
    refine Or.inl ⟨fun ⟨hsome, _⟩ => ?_, _, x, hx, hmembers _ _ _ hn hx⟩
    rw [href] at hsome
    cases hsome
  | @kept _ ms ns reference l href hkept hnames htext hmembers =>
    have hne := hnode (by rw [href]; rfl)
    obtain ⟨x, hx⟩ := exists_get?_of_names hnames hn
    refine Or.inl ⟨fun ⟨_, hnone⟩ => ?_, _, x, hx, hmembers _ _ _ hne hn hx⟩
    rw [refText?_eq_some.mpr htext] at hnone
    cases hnone
  | copied hparse hn' hcopy =>
    have hne := hnode rfl
    rw [Pointer.step?, OrderedMap.get?_cons, if_neg hne] at hn
    cases hn
  | @beside _ ms ns reference target m c href hmore hparse hn' hcopy hnames hmembers =>
    have hne := hnode (by rw [href]; rfl)
    have hrest : (ms.remove "$ref").get? (Pointer.unescapeToken token) = some n :=
      (OrderedMap.get?_remove_of_ne hv.distinct hne).trans hn
    obtain ⟨x, hx⟩ := exists_get?_of_names hnames hrest
    refine Or.inr ⟨⟨by rw [href]; rfl, rfl⟩, fun hall => ?_, _, x, ?_, hmembers _ _ _ hrest hx⟩
    · rw [Pointer.step?, OrderedMap.get?_cons, if_neg hall]
      rfl
    · rw [(at?_arms ..).2, Json.at?_cons, Pointer.step?, hx]
      rfl

/-- What a pointer leads to in a node stands, in its form, in the form of the node: under the same
pointer exactly if the way leads through no node whose reference was copied. Otherwise the pointer
itself leads nowhere, or by the `allOf` of such a node to the copy. -/
theorem Becomes.walk {kind : ChildKind} {doc : Path} {v w n : Json} {tokens : List String}
    (h : Becomes t known Kept kind doc v w) (hv : v.Proper) (hn : v.at? ⟨tokens⟩ = some n)
    (hnode : ToNode v tokens) :
    ∃ moved kind' x, w.at? ⟨moved⟩ = some x ∧ Becomes t known Kept kind' doc n x ∧
      tokens.length ≤ moved.length ∧
      (moved = tokens ∧ Whole v w tokens ∨
        moved ≠ tokens ∧ ∃ before token after, PartedAt v w before token after tokens ∧
          (Pointer.unescapeToken token ≠ "allOf" → w.at? ⟨tokens⟩ = none)) := by
  induction tokens generalizing kind v w with
  | nil =>
    cases hn
    refine ⟨[], kind, w, rfl, h, Nat.le_refl _, Or.inl ⟨rfl, fun before token after hp => ?_⟩⟩
    exact absurd hp.split (List.append_ne_nil_of_right_ne_nil _ (List.cons_ne_nil _ _)).symm
  | cons token rest ih =>
    rw [Json.at?_cons] at hn
    obtain ⟨u, hu, hn⟩ := Option.bind_eq_some_iff.mp hn
    have hstep := h.step hv hu (hnode.not_text hu hn)
    have hproper : u.Proper := hv.of_mem (Json.step?_mem_nodes hu)
    have hrest : ToNode u rest := hnode.tail hu
    rcases hstep with ⟨hnot, kind', x, hx, hbecomes⟩ | ⟨hparted, hnone, kind', x, hx, hbecomes⟩
    · obtain ⟨moved, kind'', y, hy, hform, hlen, hway⟩ := ih hbecomes hproper hn hrest
      refine ⟨token :: moved, kind'', y, ?_, hform, Nat.succ_le_succ hlen, ?_⟩
      · rw [Json.at?_cons, hx, Option.bind_some, hy]
      · rcases hway with ⟨rfl, hwhole⟩ | ⟨hne, before, out, after, hp, hdangles⟩
        · refine Or.inl ⟨rfl, fun before out after hp => ?_⟩
          cases before with
          | nil =>
            obtain ⟨a, b, ha, hb, hparted⟩ := hp.parted
            cases ha
            cases hb
            exact hnot hparted
          | cons first before =>
            obtain ⟨rfl, -⟩ := List.cons.inj hp.split
            exact hwhole before out after ((PartedAt.cons_iff hu hx).mp hp)
        · refine Or.inr ⟨fun heq => hne (List.cons.inj heq).2, token :: before, out, after,
            (PartedAt.cons_iff hu hx).mpr hp, fun hall => ?_⟩
          rw [Json.at?_cons, hx, Option.bind_some, hdangles hall]
    · obtain ⟨moved, kind'', y, hy, hform, hlen, hway⟩ := ih hbecomes hproper hn hrest
      refine ⟨["allOf", "1", token] ++ moved, kind'', y, ?_, hform, ?_, Or.inr ⟨?_, ?_⟩⟩
      · rw [Json.at?_append, hx, Option.bind_some, hy]
      · simp only [List.length_append, List.length_cons, List.length_nil]
        omega
      · intro heq
        have hlength := congrArg List.length heq
        simp only [List.length_append, List.length_cons, List.length_nil] at hlength
        omega
      · refine ⟨[], token, rest, ⟨rfl, v, w, rfl, rfl, hparted⟩, fun hall => ?_⟩
        rw [Json.at?_cons, hnone hall]
        rfl

end SchemaBindings.Bundle
