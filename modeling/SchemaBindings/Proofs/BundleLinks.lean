import SchemaBindings.Proofs.BundleEnds

/-! # Schemas whose references are written as places

If every reference in some documents leads to one of them, nothing is copied
when they are bundled: a schema of the bundle is its document with another text
for every reference, and all else is where it was. -/

namespace SchemaBindings.Bundle

open DocumentCache (Sound)
open Dereference (Located locate_of_located length_of_names exists_getElem?_of_names)

/-! ## Members that keep their names -/

/-- Members keep their names and order, and each becomes another value. -/
structure Aligned (R : String × Json → Json → Prop) (ms ns : Members) : Prop where
  names : ns.names = ms.names
  each : ∀ (i : Nat) e x, ms[i]? = some e → ns[i]? = some x → R e x.2

namespace Aligned

variable {R R' : String × Json → Json → Prop} {ms ns : Members}

theorem nil : Aligned R [] [] := ⟨rfl, fun _ _ _ he => by cases he⟩

theorem cons {e : String × Json} {w : Json} (h : R e w) (hrest : Aligned R ms ns) :
    Aligned R (e :: ms) ((e.1, w) :: ns) where
  names := congrArg (List.cons e.1) hrest.names
  each i e' x he hx := by
    cases i with
    | zero =>
      cases he
      cases hx
      exact h
    | succ i => exact hrest.each i e' x he hx

theorem imp (h : Aligned R ms ns) (himp : ∀ e ∈ ms, ∀ w, R e w → R' e w) : Aligned R' ms ns where
  names := h.names
  each i e x he hx := himp e (List.mem_of_getElem? he) x.2 (h.each i e x he hx)

/-- What stands under a name has become so from what stood under it. -/
theorem exists_of_mem (h : Aligned R ms ns) {x : String × Json} (hx : x ∈ ns) :
    ∃ v, (x.1, v) ∈ ms ∧ R (x.1, v) x.2 := by
  obtain ⟨i, hi, rfl⟩ := List.getElem_of_mem hx
  have hi' : i < ms.length := length_of_names h.names ▸ hi
  have hname : ns[i].1 = ms[i].1 := by
    have hnames := congrArg (fun names : List String => names[i]?) h.names
    simpa [OrderedMap.names, List.getElem?_eq_getElem hi, List.getElem?_eq_getElem hi'] using hnames
  have heach := h.each i _ _ (List.getElem?_eq_getElem hi') (List.getElem?_eq_getElem hi)
  refine ⟨ms[i].2, ?_, ?_⟩
  · rw [hname]
    exact List.getElem_mem hi'
  · rw [hname]
    exact heach

theorem exists_get? (h : Aligned R ms ns) (hd : ms.Distinct) {name : String} {v : Json}
    (hv : ms.get? name = some v) : ∃ w, ns.get? name = some w ∧ R (name, v) w := by
  obtain ⟨w, hw⟩ := exists_get?_of_names h.names hv
  obtain ⟨v', hv', hform⟩ := h.exists_of_mem (OrderedMap.mem_of_get? hw)
  rw [OrderedMap.get?_of_mem hd hv'] at hv
  cases hv
  exact ⟨w, hw, hform⟩

theorem exists_of_forall (h : ∀ e ∈ ms, ∃ w, R e w) : ∃ ns, Aligned R ms ns := by
  induction ms with
  | nil => exact ⟨[], .nil⟩
  | cons e ms ih =>
    obtain ⟨w, hw⟩ := h e (List.mem_cons_self ..)
    obtain ⟨ns, hns⟩ := ih fun e he => h e (List.mem_cons_of_mem _ he)
    exact ⟨_, .cons hw hns⟩

theorem distinct (h : Aligned R ms ns) (hd : ms.Distinct) : ns.Distinct := by
  unfold OrderedMap.Distinct at hd ⊢
  rwa [h.names]

end Aligned

/-! ## Other texts for references -/

/-- What a value, read as data, as named schemas or as a schema, becomes if each reference gets the text
of the place that it goes to. -/
inductive Relinked (Goes : String → Pointer → Prop) : ChildKind → Json → Json → Prop where
  | data {v : Json} : Relinked Goes .data v v
  | leaf {v : Json} (hm : v.members? = none) (hi : v.items? = none) : Relinked Goes .schema v v
  | array {xs ys : List Json} (hlen : ys.length = xs.length)
      (h : ∀ (i : Nat) x y, xs[i]? = some x → ys[i]? = some y → Relinked Goes .schema x y) :
      Relinked Goes .schema (.array xs) (.array ys)
  | named {ms ns : Members} (hnames : ns.names = ms.names)
      (h : ∀ (i : Nat) e x, ms[i]? = some e → ns[i]? = some x → Relinked Goes .schema e.2 x.2) :
      Relinked Goes .namedSchemas (.object ms) (.object ns)
  | plain {ms ns : Members} (href : refText? (.object ms) = none) (hnames : ns.names = ms.names)
      (h : ∀ (i : Nat) e x, ms[i]? = some e → ns[i]? = some x →
        Relinked Goes (kindOf e.1 e.2) e.2 x.2) :
      Relinked Goes .schema (.object ms) (.object ns)
  | kept {ms ns : Members} {reference : String} {l : Pointer}
      (href : refText? (.object ms) = some reference) (hgoes : Goes reference l)
      (hnames : ns.names = ms.names) (htext : ns.get? "$ref" = some (.string l.fragment))
      (h : ∀ (i : Nat) e x, ms[i]? = some e → ns[i]? = some x → e.1 ≠ "$ref" →
        Relinked Goes (kindOf e.1 e.2) e.2 x.2) :
      Relinked Goes .schema (.object ms) (.object ns)

namespace Relinked

variable {Goes : String → Pointer → Prop} {kind : ChildKind} {v w : Json}

theorem members?_isSome (h : Relinked Goes kind v w) : w.members?.isSome = v.members?.isSome := by
  cases h <;> rfl

theorem kindOf_eq (h : Relinked Goes kind v w) (key : String) : kindOf key w = kindOf key v := by
  have hsome := h.members?_isSome
  unfold kindOf
  cases childKind key with
  | data => rfl
  | schema => rfl
  | namedSchemas =>
    cases v <;> cases w <;> first | rfl | cases hsome

/-- Only a text becomes a text, and then itself. -/
theorem of_string {text : String} (h : Relinked Goes kind v (.string text)) : v = .string text := by
  cases h <;> rfl

/-- What was no reference does not become one. -/
theorem refText?_eq_none {ms ns : Members} (hd : ms.Distinct) (href : refText? (.object ms) = none)
    {R : String × Json → Json → Prop} (h : Aligned R ms ns)
    (hR : ∀ v text, R ("$ref", v) (.string text) → v = .string text) :
    refText? (.object ns) = none := by
  rw [Option.eq_none_iff_forall_ne_some]
  intro text htext
  obtain ⟨v, hv, hform⟩ := h.exists_of_mem (OrderedMap.mem_of_get? (refText?_eq_some.mp htext))
  obtain rfl := hR v text hform
  rw [refText?_eq_some.mpr (OrderedMap.get?_of_mem hd hv)] at href
  cases href

end Relinked

/-! ## Pointers into what was relinked -/

/-- What the value one token below another is read as. -/
def kindBelow : ChildKind → Json → String → Json → ChildKind
  | .namedSchemas, .object _, _, _ => .schema
  | .schema, .array _, _, _ => .schema
  | .schema, .object _, token, u => kindOf (Pointer.unescapeToken token) u
  | _, _, _, _ => .data

/-- What the value that some tokens lead to is read as. -/
def kindAt (kind : ChildKind) (v : Json) : List String → ChildKind
  | [] => kind
  | token :: rest =>
    match Pointer.step? v token with
    | none => .data
    | some u => kindAt (kindBelow kind v token u) u rest

/-- A value holds no references, however it is read. -/
def Plain (v : Json) : Prop := ∀ n ∈ v.nodes, refText? n = none

instance (v : Json) : Decidable (Plain v) :=
  inferInstanceAs (Decidable (∀ n ∈ v.nodes, refText? n = none))

namespace Relinked

variable {Goes : String → Pointer → Prop} {kind : ChildKind} {v w n : Json}

theorem step (h : Relinked Goes kind v w) (hv : v.Proper) {token : String} {u : Json}
    (hu : Pointer.step? v token = some u)
    (hnode : (refText? v).isSome = true → Pointer.unescapeToken token ≠ "$ref") :
    ∃ x, Pointer.step? w token = some x ∧ Relinked Goes (kindBelow kind v token u) u x := by
  cases h with
  | data => exact ⟨u, hu, .data⟩
  | leaf hm hi =>
    cases v with
    | object ms => cases hm
    | array xs => cases hi
    | _ => cases hu
  | array hlen hitems =>
    obtain ⟨i, hi, hx⟩ := Option.bind_eq_some_iff.mp hu
    obtain ⟨hlt, -⟩ := List.getElem?_eq_some_iff.mp hx
    have hy := List.getElem?_eq_getElem (hlen ▸ hlt)
    exact ⟨_, Option.bind_eq_some_iff.mpr ⟨i, hi, hy⟩, hitems i _ _ hx hy⟩
  | named hnames h =>
    exact Aligned.exists_get? (R := fun e w => Relinked Goes .schema e.2 w) ⟨hnames, h⟩ hv.distinct hu
  | plain _ hnames h =>
    exact Aligned.exists_get? (R := fun e w => Relinked Goes (kindOf e.1 e.2) e.2 w) ⟨hnames, h⟩
      hv.distinct hu
  | kept href _ hnames _ h =>
    have hne := hnode (by rw [href]; rfl)
    obtain ⟨x, hx, hform⟩ := Aligned.exists_get?
      (R := fun e w => e.1 ≠ "$ref" → Relinked Goes (kindOf e.1 e.2) e.2 w) ⟨hnames, h⟩ hv.distinct hu
    exact ⟨x, hx, hform hne⟩

/-- What a pointer leads to in a value stands, relinked, under the same pointer, unless that is the text
of a reference. -/
theorem walk {tokens : List String} (h : Relinked Goes kind v w) (hv : v.Proper)
    (hn : v.at? ⟨tokens⟩ = some n) (hnode : ToNode v tokens) :
    ∃ x, w.at? ⟨tokens⟩ = some x ∧ Relinked Goes (kindAt kind v tokens) n x := by
  induction tokens generalizing kind v w with
  | nil =>
    cases hn
    exact ⟨w, rfl, h⟩
  | cons token rest ih =>
    rw [Json.at?_cons] at hn
    obtain ⟨u, hu, hn⟩ := Option.bind_eq_some_iff.mp hn
    obtain ⟨x, hx, hform⟩ := h.step hv hu (hnode.not_text hu hn)
    obtain ⟨y, hy, hlast⟩ := ih hform (hv.of_mem (Json.step?_mem_nodes hu)) hn (hnode.tail hu)
    refine ⟨y, ?_, ?_⟩
    · rw [Json.at?_cons, hx, Option.bind_some, hy]
    · rw [kindAt, hu]
      exact hlast

/-- A value without references is left as it is, however it is read. -/
theorem eq_of_plain (h : Relinked Goes kind v w) (hv : Plain v) : w = v := by
  induction h with
  | data => rfl
  | leaf => rfl
  | array hlen _ ih =>
    refine congrArg Json.array (List.ext_getElem hlen fun i hi hi' => ?_)
    have hmem := Json.item_mem_nodes (List.getElem_mem hi')
    exact ih i _ _ (List.getElem?_eq_getElem hi') (List.getElem?_eq_getElem hi)
      fun m hm => hv m (Json.mem_nodes_trans _ hmem hm)
  | named hnames _ ih =>
    refine congrArg Json.object (Dereference.eq_of_names hnames fun i x e hx he => ?_)
    have hmem := Json.member_mem_nodes (List.mem_of_getElem? he)
    exact ih i e x he hx fun m hm => hv m (Json.mem_nodes_trans _ hmem hm)
  | plain _ hnames _ ih =>
    refine congrArg Json.object (Dereference.eq_of_names hnames fun i x e hx he => ?_)
    have hmem := Json.member_mem_nodes (List.mem_of_getElem? he)
    exact ih i e x he hx fun m hm => hv m (Json.mem_nodes_trans _ hmem hm)
  | kept href => cases href.symm.trans (hv _ (Json.self_mem_nodes _))

theorem of_plain (hv : Plain v) : Relinked Goes .schema v v := by
  induction v using Json.byParts with
  | object ms ih =>
    refine .plain (hv _ (Json.self_mem_nodes _)) rfl fun i e x he hx => ?_
    cases he.symm.trans hx
    have hmem := List.mem_of_getElem? he
    have hplain : Plain e.2 := fun m hm => hv m (Json.mem_nodes_trans _ (Json.member_mem_nodes hmem) hm)
    obtain ⟨key, v⟩ := e
    unfold kindOf
    dsimp only
    cases childKind key with
    | data => exact .data
    | schema => exact (ih _ hmem).1 hplain
    | namedSchemas =>
      cases v with
      | object named =>
        refine .named rfl fun i e x he hx => ?_
        cases he.symm.trans hx
        have hmem' := List.mem_of_getElem? he
        exact (ih _ hmem).2 named rfl _ hmem' fun m hm =>
          hplain m (Json.mem_nodes_trans _ (Json.member_mem_nodes hmem') hm)
      | _ => exact (ih _ hmem).1 hplain
  | array xs ih =>
    refine .array rfl fun i x y hx hy => ?_
    cases hx.symm.trans hy
    have hmem := List.mem_of_getElem? hx
    exact ih x hmem fun m hm => hv m (Json.mem_nodes_trans _ (Json.item_mem_nodes hmem) hm)
  | leaf v hm hi => exact .leaf hm hi

end Relinked

/-! ## Runs that copy nothing -/

/-- From any fit state a computation comes to a result of some form, and changes nothing. -/
def Keeps {α : Type} (Fit : State → Prop) (Form : α → Prop) (act : BundleM α) : Prop :=
  ∀ s, Fit s → ∃ a, Runs act s a s ∧ Form a

section

variable {Fit : State → Prop} {α β : Type} {Form : α → Prop} {Form' : β → Prop}

theorem keeps_pure {a : α} (h : Form a) : Keeps Fit Form (pure a) := fun _ _ => ⟨a, rfl, h⟩

theorem keeps_bind {act : BundleM α} {next : α → BundleM β} (h : Keeps Fit Form act)
    (h' : ∀ a, Form a → Keeps Fit Form' (next a)) : Keeps Fit Form' (act >>= next) := by
  intro s hs
  obtain ⟨a, hrun, ha⟩ := h s hs
  obtain ⟨b, hrun', hb⟩ := h' a ha s hs
  exact ⟨b, hrun.andThen hrun', hb⟩

theorem keeps_map {act : BundleM α} {f : α → β} (h : Keeps Fit Form act)
    (hf : ∀ a, Form a → Form' (f a)) : Keeps Fit Form' (do return f (← act)) :=
  keeps_bind h fun a ha => keeps_pure (hf a ha)

theorem runEntries_keeps {R : String × Json → Json → Prop} {act : String × Json → BundleM Json}
    {ms : Members} (h : ∀ e ∈ ms, Keeps Fit (R e) (act e)) :
    Keeps Fit (Aligned R ms) (runEntries (ms.map fun e => (e.1, act e))) := by
  induction ms with
  | nil => exact keeps_pure .nil
  | cons e ms ih =>
    have hothers := ih fun e he => h e (List.mem_cons_of_mem _ he)
    exact keeps_bind (h e (List.mem_cons_self ..)) fun w hw => keeps_map hothers fun ns hns =>
      .cons hw hns

variable {Goes : String → Pointer → Prop} {follow : Follow} {doc : Path}

/-- A reference leads to the place that it goes to. -/
def Arrives (Fit : State → Prop) (Goes : String → Pointer → Prop) (follow : Follow) (doc : Path)
    (reference : String) : Prop :=
  ∀ spot, Keeps Fit (fun outcome => ∃ l, outcome = .placed l ∧ Goes reference l)
    (follow reference doc spot)

/-- A run on a value relinks it if its references lead to places. -/
def NodeKeeps (Fit : State → Prop) (Goes : String → Pointer → Prop) (follow : Follow) (doc : Path)
    (v : Json) : Prop :=
  (∀ reference, Mentions .schema v reference → Arrives Fit Goes follow doc reference) →
    ∀ here, Keeps Fit (Relinked Goes .schema v) (relocateNode follow doc here v)

theorem relocateItems_keeps {here : Pointer} {index : Nat} {xs : List Json}
    (hnode : ∀ x ∈ xs, ∀ here, Keeps Fit (Relinked Goes .schema x) (relocateNode follow doc here x)) :
    Keeps Fit (fun ys => ys.length = xs.length ∧ ∀ (i : Nat) x y, xs[i]? = some x → ys[i]? = some y →
      Relinked Goes .schema x y) (relocateItems follow doc here index xs) := by
  induction xs generalizing index with
  | nil =>
    rw [relocateItems]
    exact keeps_pure ⟨rfl, fun _ _ _ hx => by cases hx⟩
  | cons x xs ih =>
    rw [relocateItems]
    refine keeps_bind (hnode x (List.mem_cons_self ..) _) fun y hy => ?_
    refine keeps_map (ih fun x hx => hnode x (List.mem_cons_of_mem _ hx)) fun ys hys => ?_
    refine ⟨congrArg Nat.succ hys.1, fun i x' y' hx' hy' => ?_⟩
    cases i with
    | zero =>
      cases hx'
      cases hy'
      exact hy
    | succ i => exact hys.2 i x' y' hx' hy'

theorem relocateMember_keeps {here : Pointer} {e : String × Json}
    (hnode : NodeKeeps Fit Goes follow doc e.2)
    (hnamed : ∀ named, e.2 = .object named → ∀ x ∈ named, NodeKeeps Fit Goes follow doc x.2)
    (hfollow : ∀ reference, Mentions (kindOf e.1 e.2) e.2 reference →
      Arrives Fit Goes follow doc reference) :
    Keeps Fit (Relinked Goes (kindOf e.1 e.2) e.2) (relocateMember follow doc here e) := by
  obtain ⟨key, v⟩ := e
  unfold kindOf at hfollow ⊢
  unfold relocateMember
  dsimp only at hnode hnamed hfollow ⊢
  cases hkind : childKind key with
  | data => exact keeps_pure .data
  | schema =>
    rw [hkind] at hfollow
    exact hnode hfollow _
  | namedSchemas =>
    rw [hkind] at hfollow
    cases v with
    | object named =>
      dsimp only
      rw [relocateNamed_eq_map]
      refine keeps_map (runEntries_keeps (R := fun e w => Relinked Goes .schema e.2 w)
        fun x hx => ?_) fun ns hns => .named hns.names hns.each
      exact hnamed named rfl x hx (fun reference hm => hfollow reference (.named hx hm)) _
    | _ => exact hnode hfollow _

theorem object_keeps {ms : Members} (hd : ms.Distinct)
    (hnode : ∀ e ∈ ms, NodeKeeps Fit Goes follow doc e.2)
    (hnamed : ∀ e ∈ ms, ∀ named, e.2 = .object named → ∀ x ∈ named,
      NodeKeeps Fit Goes follow doc x.2) : NodeKeeps Fit Goes follow doc (.object ms) := by
  intro hfollow here
  have hmember : ∀ e ∈ ms, Keeps Fit (Relinked Goes (kindOf e.1 e.2) e.2)
      (relocateMember follow doc here e) := fun e he =>
    relocateMember_keeps (hnode e he) (hnamed e he) fun reference hm => hfollow reference (.member he hm)
  rw [relocateNode.eq_def]
  dsimp only
  split
  · rename_i reference hget
    have href : refText? (.object ms) = some reference := refText?_eq_some.mpr hget
    refine keeps_bind (hfollow reference (.here href) _) fun outcome houtcome => ?_
    obtain ⟨l, rfl, hgoes⟩ := houtcome
    dsimp only
    rw [relocateMembers_eq_map, substitute_map]
    refine keeps_map (runEntries_keeps (R := fun e w => if e.1 = "$ref" then w = .string l.fragment
      else Relinked Goes (kindOf e.1 e.2) e.2 w) fun e he => ?_) fun ns hns => ?_
    · split
      · exact keeps_pure rfl
      · exact hmember e he
    · obtain ⟨w, hw, hform⟩ := hns.exists_get? hd hget
      rw [if_pos rfl] at hform
      refine .kept href hgoes hns.names (hform ▸ hw) fun i e x he hx hne => ?_
      have heach := hns.each i e x he hx
      rwa [if_neg hne] at heach
  · rename_i hget
    have href : refText? (.object ms) = none := by
      rw [Option.eq_none_iff_forall_ne_some]
      exact fun reference h => hget reference (refText?_eq_some.mp h)
    rw [relocateMembers_eq_map]
    exact keeps_map (runEntries_keeps hmember) fun ns hns => .plain href hns.names hns.each

/-- A run on a value whose references lead to places relinks it, and changes nothing. -/
theorem relocateNode_keeps {v : Json} (hv : v.Proper) : NodeKeeps Fit Goes follow doc v := by
  induction v using Json.byParts with
  | object ms ih =>
    have hp : ∀ e ∈ ms, e.2.Proper := fun e he => hv.of_mem (Json.member_mem_nodes he)
    refine object_keeps hv.distinct (fun e he => (ih e he).1 (hp e he)) fun e he named hnamed x hx => ?_
    have hproper := hp e he
    rw [hnamed] at hproper
    exact (ih e he).2 named hnamed x hx (hproper.of_mem (Json.member_mem_nodes hx))
  | array xs ih =>
    intro hfollow here
    rw [relocateNode.eq_def]
    refine keeps_map (relocateItems_keeps fun x hx => ?_) fun ys hys => .array hys.1 hys.2
    exact ih x hx (hv.of_mem (Json.item_mem_nodes hx)) fun reference hm => hfollow reference (.item hx hm)
  | leaf v hm hi =>
    intro _ here
    rw [relocateNode_leaf hm hi]
    exact keeps_pure (.leaf hm hi)

end

end SchemaBindings.Bundle
