import SchemaBindings.Proofs.IdentifierCharacters
import SchemaBindings.Proofs.LoweringNames

/-! # The items that are compiled have names for everything

Every name that the compilation hands out is an identifier that was made of
some text, or one with a number behind it. None of these holds a sign or a blank
that would end it. A name only enters from outside when a node or the root is
given one, so if those are names, everything in the items is called by one. -/

namespace SchemaBindings

namespace Code

/-- Whether a character ends a name: a sign or a blank that comes before the letters. -/
def endsName (c : Char) : Bool := c.toNat < 0x41 && !isIdentChar c

/-- A text that nothing in it ends. -/
def IsName (cs : List Char) : Prop := ∀ c ∈ cs, endsName c = false

theorem IsWord.isName {cs : List Char} (h : IsWord cs) : IsName cs := by
  intro c hc
  rw [endsName, h c hc]
  simp

namespace IsName

theorem of_all {cs : List Char} (h : cs.all (!endsName ·) = true) : IsName cs := by
  intro c hc
  simpa using List.all_eq_true.mp h c hc

theorem append {cs ds : List Char} (hc : IsName cs) (hd : IsName ds) : IsName (cs ++ ds) := by
  intro c hmem
  rcases List.mem_append.mp hmem with hmem | hmem
  · exact hc c hmem
  · exact hd c hmem

theorem not_mem {cs : List Char} (h : IsName cs) {c : Char} (hc : endsName c = true) : c ∉ cs := by
  intro hmem
  rw [h c hmem] at hc
  cases hc

theorem toString (n : Nat) : IsName (toString n).toList := by
  intro c hc
  have hdigits : ∀ m < 128, (Char.ofNat m).isDigit = true → endsName (Char.ofNat m) = false := by
    decide +kernel
  have hdigit := Pointer.isDigit_of_mem_toString hc
  have hname := hdigits c.toNat (Text.lt_of_isAlphanum (by simp [Char.isAlphanum, hdigit]))
  rw [Char.ofNat_toNat] at hname
  exact hname hdigit

theorem freshName {candidate : String} (h : IsName candidate.toList) (s : NameScope) :
    IsName (s.freshName candidate).toList := by
  unfold NameScope.freshName NameScope.numbered
  split
  · rw [String.toList_append]
    exact h.append (toString _)
  · exact h

theorem of_mem_claimAll {candidates : List String} (h : ∀ c ∈ candidates, IsName c.toList)
    (s : NameScope) {name : String} (hname : name ∈ (s.claimAll candidates).1) :
    IsName name.toList := by
  induction candidates generalizing s with
  | nil => cases hname
  | cons candidate rest ih =>
    rcases List.mem_cons.mp hname with rfl | hname
    · exact freshName (h candidate (List.mem_cons_self ..)) s
    · exact ih (fun c hc => h c (List.mem_cons_of_mem _ hc)) _ hname

/-- An upper-case form may hold marks that cannot start a word, but no signs. -/
theorem pascalCase (name : String) : IsName (pascalCase name).toList := by
  intro c hc
  unfold Code.pascalCase at hc
  rw [String.toList_ofList] at hc
  obtain ⟨w, hw, hc⟩ := List.mem_flatMap.mp hc
  obtain ⟨-, halnum⟩ := words_alphanumeric hw
  have hletter {d : Char} (hd : d ∈ w) : endsName d = false := by
    simp [endsName, isIdentChar, halnum d hd]
  cases w with
  | nil => cases hc
  | cons d w =>
    have hfirst : upperFirst (d :: w) = Text.upperChar d ++ w := rfl
    rw [hfirst, List.mem_append] at hc
    rcases hc with hc | hc
    · rcases Text.eq_or_le_of_mem_upperChar hc with rfl | hle
      · exact hletter (List.mem_cons_self ..)
      · simp [endsName, hle]
    · exact hletter (List.mem_cons_of_mem _ hc)

theorem variantIdent (value : String) : IsName (variantIdent value).toList := by
  unfold Code.variantIdent
  dsimp only
  split
  · exact of_all (by decide)
  · split
    · rw [String.toList_append]
      have hletter : IsName "V".toList := of_all (by decide)
      exact hletter.append (pascalCase value)
    · exact (IsWord.sanitize (IsWord.of_all (by decide)) _).isName

end IsName

end Code

open Code (IsName IsWord)

/-- A type in which every name is one. -/
def Ty.Called (ty : Ty) : Prop := ∀ n ∈ ty.names, IsName n.toList

theorem Ty.Called.of_names {ty ty' : Ty} (h : ty.Called) (hnames : ty'.names = ty.names) :
    ty'.Called := fun n hn => h n (hnames ▸ hn)

theorem Ty.Called.of_names_eq_nil {ty : Ty} (h : ty.names = []) : ty.Called := by
  intro n hn
  rw [h] at hn
  cases hn

theorem Ty.Called.named {n : String} (h : IsName n.toList) : (Ty.named n).Called := by
  intro m hm
  rwa [List.mem_singleton.mp hm]

/-- The identifiers of the parts of an item. -/
def ItemShape.idents : ItemShape → List String
  | .record fields _ extra => fields.map (·.ident) ++ (extra.map (·.1)).toList
  | .enumeration variants => variants.map (·.ident)
  | .union arms => arms.map (·.ident)
  | .alias _ => []

/-- An item that has names for everything. -/
structure Item.Called (x : Item) : Prop where
  name : IsName x.name.toList
  idents : ∀ n ∈ x.shape.idents, IsName n.toList
  types : ∀ ty ∈ x.shape.types, ty.Called

/-- All items and all nodes have names. -/
structure LowerState.Called (s : LowerState) : Prop where
  items : ∀ x ∈ s.items, x.Called
  named : ∀ e ∈ s.named, IsName e.2.toList

namespace Lowering

variable {root : Option Json} {s t u : LowerState} {name : ItemName}

/-- A step that comes to a type keeps names for everything. -/
structure Calls (act : LowerM Ty) : Prop where
  called : ∀ {s ty t}, s.Called → Yields act s ty t → t.Called ∧ ty.Called

/-- Every schema is compiled with names for everything, if the name that it is given is one. -/
def CallsAll (lower : Lower) : Prop :=
  ∀ v name, (∀ n ∈ name.owned, IsName n.toList) → Calls (lower v name)

theorem Calls.pure {ty : Ty} (h : ty.names = []) : Calls (Pure.pure ty) := by
  refine ⟨fun {s ty' t} hs hrun => ?_⟩
  obtain ⟨rfl, rfl⟩ := hrun.pure
  exact ⟨hs, .of_names_eq_nil h⟩

theorem Calls.wrap {act : LowerM Ty} {f : Ty → Ty} (hnames : ∀ ty, (f ty).names = ty.names)
    (h : Calls act) : Calls (do return f (← act)) := by
  refine ⟨fun {s ty t} hs hrun => ?_⟩
  obtain ⟨ty, hact, rfl⟩ := hrun.some
  obtain ⟨ht, hty⟩ := h.called hs hact
  exact ⟨ht, hty.of_names (hnames ty)⟩

theorem owned_child_called (name : ItemName) (part : String) :
    ∀ n ∈ (name.child part).owned, IsName n.toList := by
  simp [ItemName.child, ItemName.owned]

theorem owned_hint_called (base : String) :
    ∀ n ∈ (ItemName.hint base).owned, IsName n.toList := by
  simp [ItemName.owned]

/-! ## Items -/

theorem openSlot_called {slot : Nat} (h : s.Called) (hrun : Yields openSlot s slot t) :
    t.Called := by
  obtain ⟨-, rfl⟩ := openSlot_yields hrun
  exact ⟨fun x hx => h.items x (by simpa [LowerState.items] using hx), h.named⟩

theorem fill_called {slot : Nat} {x : Item} {a : Unit} (h : s.Called) (hx : x.Called)
    (hrun : Yields (fill slot x) s a t) : t.Called := by
  obtain rfl := fill_yields hrun
  refine ⟨fun y hy => ?_, h.named⟩
  obtain ⟨e, he, heq⟩ := List.mem_filterMap.mp hy
  obtain rfl : e = some y := heq
  rcases List.mem_or_eq_of_mem_set he with he | he
  · exact h.items y (List.mem_filterMap.mpr ⟨_, he, rfl⟩)
  · rwa [Option.some.inj he]

theorem claimName_called {candidate n : String} (h : s.Called) (hname : IsName candidate.toList)
    (hrun : Yields (claimName candidate) s n t) : t.Called ∧ IsName n.toList := by
  have hn : IsName n.toList := by
    cases hrun
    exact hname.freshName _
  rw [claimName_state hrun]
  exact ⟨⟨h.items, h.named⟩, hn⟩

theorem claim_called {n : String} (h : s.Called) (hname : ∀ m ∈ name.owned, IsName m.toList)
    (hrun : Yields (claim name) s n t) : t.Called ∧ IsName n.toList := by
  cases name with
  | exact m =>
    obtain ⟨rfl, rfl⟩ := hrun.pure
    exact ⟨h, hname n (List.mem_singleton_self n)⟩
  | hint m => exact claimName_called h (IsWord.typeIdent m).isName hrun

/-- A schema that becomes an item, when its parts have names. -/
theorem item_called {nullable : Bool} {n : String} {slot : Nat} {doc : Option String}
    {shape : ItemShape} {a : Unit} {s₁ s₂ s₃ : LowerState} (h : s.Called)
    (hname : ∀ m ∈ name.owned, IsName m.toList) (hclaim : Yields (claim name) s n s₁)
    (hopen : Yields openSlot s₁ slot s₂)
    (hbody : s₂.Called → s₃.Called ∧ (∀ n ∈ shape.idents, IsName n.toList) ∧
      ∀ ty ∈ shape.types, ty.Called)
    (hfill : Yields (fill slot ⟨n, doc, shape⟩) s₃ a t) :
    t.Called ∧ (itemType n nullable).Called := by
  obtain ⟨hs₁, hn⟩ := claim_called h hname hclaim
  obtain ⟨hs₃, hidents, htypes⟩ := hbody (openSlot_called hs₁ hopen)
  refine ⟨fill_called hs₃ ⟨hn, hidents, htypes⟩ hfill, ?_⟩
  cases nullable with
  | false => exact .named hn
  | true => exact (Ty.Called.named hn).of_names rfl

theorem owned_payloadName {nullable : Bool} (h : ∀ n ∈ name.owned, IsName n.toList) :
    ∀ n ∈ (payloadName name nullable).owned, IsName n.toList := by
  cases nullable with
  | false => exact h
  | true => simp [payloadName]

/-! ## Schemas -/

section Parts

variable {lower : Lower}

theorem lowerArms_called {α : Type} {lowerArm : α → ItemName → LowerM Ty}
    (hl : ∀ x name, (∀ n ∈ name.owned, IsName n.toList) → Calls (lowerArm x name))
    {itemName : String} {number : Nat} {idents : Code.NameScope} {xs : List α} {arms : List Arm}
    (h : s.Called) (hrun : Yields (lowerArms lowerArm itemName number idents xs) s arms t) :
    t.Called ∧ ∀ a ∈ arms, IsName a.ident.toList ∧ a.ty.Called := by
  induction xs generalizing number idents s arms with
  | nil =>
    obtain ⟨rfl, rfl⟩ := hrun.pure
    exact ⟨h, fun a ha => nomatch ha⟩
  | cons x xs ih =>
    obtain ⟨ty, u, hx, hrun⟩ := hrun.bind
    obtain ⟨rest, hrest, rfl⟩ := hrun.some
    obtain ⟨hu, hty⟩ := (hl x _ (owned_hint_called _)).called h hx
    obtain ⟨ht, harms⟩ := ih hu hrest
    refine ⟨ht, List.forall_mem_cons.mpr ⟨⟨?_, hty⟩, harms⟩⟩
    exact (IsName.variantIdent ty.word).freshName idents

theorem lowerAlternatives_calls {α : Type} {lowerArm : α → ItemName → LowerM Ty}
    (hl : ∀ x name, (∀ n ∈ name.owned, IsName n.toList) → Calls (lowerArm x name)) (ms : Members)
    (hname : ∀ n ∈ name.owned, IsName n.toList) (xs : List α) (nullable : Bool) :
    Calls (lowerAlternatives lowerArm ms name xs nullable) := by
  match xs, nullable with
  | [], true => exact .pure rfl
  | [], false => exact .pure rfl
  | [x], false => exact hl x name hname
  | [x], true => exact .wrap Ty.names_optional (hl x name.inner (by simp))
  | x :: y :: rest, nullable =>
    refine ⟨fun {s ty t} hs hrun => ?_⟩
    obtain ⟨n, s₁, hclaim, hrun⟩ := hrun.bind
    obtain ⟨slot, s₂, hopen, hrun⟩ := hrun.bind
    obtain ⟨arms, s₃, harms, hrun⟩ := hrun.bind
    obtain ⟨_, hfill, rfl⟩ := hrun.some
    refine item_called hs (owned_payloadName hname) hclaim hopen (fun hs₂ => ?_) hfill
    obtain ⟨hs₃, hcalled⟩ := lowerArms_called hl hs₂ harms
    refine ⟨hs₃, fun n hn => ?_, fun ty hty => ?_⟩
    · obtain ⟨a, ha, rfl⟩ := List.mem_map.mp hn
      exact (hcalled a ha).1
    · obtain ⟨a, ha, rfl⟩ := List.mem_map.mp hty
      exact (hcalled a ha).2

theorem lowerEnum_calls (values : List Json) (ms : Members)
    (hname : ∀ n ∈ name.owned, IsName n.toList) : Calls (lowerEnum values ms name) := by
  unfold lowerEnum
  split
  · exact .pure rfl
  · exact .pure (by split <;> rfl)
  · rename_i texts nullable _ _
    refine ⟨fun {s ty t} hs hrun => ?_⟩
    obtain ⟨n, s₁, hclaim, hrun⟩ := hrun.bind
    obtain ⟨slot, s₂, hopen, hrun⟩ := hrun.bind
    obtain ⟨_, hfill, rfl⟩ := hrun.some
    refine item_called hs (owned_payloadName hname) hclaim hopen (fun hs₂ => ?_) hfill
    refine ⟨hs₂, fun n hn => ?_, fun ty hty => nomatch hty⟩
    obtain ⟨v, hv, rfl⟩ := List.mem_map.mp hn
    rw [← List.map_uncurry_zip_eq_zipWith] at hv
    obtain ⟨⟨ident, text⟩, hpair, rfl⟩ := List.mem_map.mp hv
    refine IsName.of_mem_claimAll (fun c hc => ?_) _ (List.of_mem_zip hpair).1
    obtain ⟨text, -, rfl⟩ := List.mem_map.mp hc
    exact IsName.variantIdent text

theorem lowerFields_called (hl : CallsAll lower) {itemName : String} {required : List String}
    {idents idents' : Code.NameScope} {properties : Members} {fields : List Field} (h : s.Called)
    (hrun : Yields (lowerFields lower itemName required idents properties) s (fields, idents') t) :
    t.Called ∧ ∀ f ∈ fields, IsName f.ident.toList ∧ f.ty.Called := by
  induction properties generalizing idents idents' s fields with
  | nil =>
    obtain ⟨hnil, rfl⟩ := hrun.pure
    cases hnil
    exact ⟨h, fun f hf => nomatch hf⟩
  | cons e rest ih =>
    obtain ⟨property, schema⟩ := e
    obtain ⟨ty, u, hx, hrun⟩ := hrun.bind
    obtain ⟨⟨others, _⟩, hrest, heq⟩ := hrun.some
    cases heq
    obtain ⟨hu, hty⟩ := (hl schema _ (owned_hint_called _)).called h hx
    obtain ⟨ht, hothers⟩ := ih hu hrest
    refine ⟨ht, List.forall_mem_cons.mpr ⟨⟨?_, ?_⟩, hothers⟩⟩
    · exact (IsWord.fieldIdent property).isName.freshName idents
    · show Ty.Called (if required.contains property then ty else ty.optional)
      split
      · exact hty
      · exact hty.of_names (Ty.names_optional ty)

theorem lowerFreeObject_calls (hl : CallsAll lower) (ms : Members) (name : ItemName) :
    Calls (lowerFreeObject lower ms name) := by
  unfold lowerFreeObject
  split
  · exact .wrap (fun _ => rfl) (hl _ _ (owned_child_called name _))
  · exact .pure rfl

theorem lowerExtra_called (hl : CallsAll lower) {ms : Members} {itemName : String}
    {idents : Code.NameScope} {denyUnknown : Bool} {extra : Option (String × Ty)} (h : s.Called)
    (hrun : Yields (lowerExtra lower ms itemName idents) s (denyUnknown, extra) t) :
    t.Called ∧ ∀ e ∈ extra, IsName e.1.toList ∧ e.2.Called := by
  unfold lowerExtra at hrun
  split at hrun
  · obtain ⟨heq, rfl⟩ := hrun.pure
    cases heq
    exact ⟨h, fun e he => nomatch he⟩
  · obtain ⟨ty, hx, heq⟩ := hrun.some
    cases heq
    obtain ⟨ht, hty⟩ := (hl _ _ (owned_hint_called _)).called h hx
    refine ⟨ht, fun e he => ?_⟩
    obtain rfl := Option.some.inj he
    have hextra : IsName "extra".toList := IsName.of_all (by decide)
    exact ⟨hextra.freshName idents, hty⟩
  · obtain ⟨heq, rfl⟩ := hrun.pure
    cases heq
    exact ⟨h, fun e he => nomatch he⟩

theorem lowerObject_calls (hl : CallsAll lower) (ms : Members)
    (hname : ∀ n ∈ name.owned, IsName n.toList) : Calls (lowerObject lower ms name) := by
  unfold lowerObject
  split
  · refine ⟨fun {s ty t} hs hrun => ?_⟩
    obtain ⟨n, s₁, hclaim, hrun⟩ := hrun.bind
    obtain ⟨slot, s₂, hopen, hrun⟩ := hrun.bind
    obtain ⟨⟨fields, idents⟩, u, hfields, hrun⟩ := hrun.bind
    obtain ⟨⟨denyUnknown, extra⟩, s₃, hextra, hrun⟩ := hrun.bind
    obtain ⟨_, hfill, rfl⟩ := hrun.some
    change t.Called ∧ (itemType n false).Called
    refine item_called hs hname hclaim hopen (fun hs₂ => ?_) hfill
    obtain ⟨hu, hfields⟩ := lowerFields_called hl hs₂ hfields
    obtain ⟨hs₃, hextra⟩ := lowerExtra_called hl hu hextra
    refine ⟨hs₃, fun n hn => ?_, fun ty hty => ?_⟩
    · rcases List.mem_append.mp hn with hn | hn
      · obtain ⟨f, hf, rfl⟩ := List.mem_map.mp hn
        exact (hfields f hf).1
      · obtain ⟨e, he, rfl⟩ := Option.map_eq_some_iff.mp (Option.mem_toList.mp hn)
        exact (hextra e he).1
    · rcases List.mem_append.mp hty with hty | hty
      · obtain ⟨f, hf, rfl⟩ := List.mem_map.mp hty
        exact (hfields f hf).2
      · obtain ⟨e, he, rfl⟩ := Option.map_eq_some_iff.mp (Option.mem_toList.mp hty)
        exact (hextra e he).2
  · exact lowerFreeObject_calls hl ms name

theorem lowerArray_calls (hl : CallsAll lower) (ms : Members) (name : ItemName) :
    Calls (lowerArray lower ms name) := by
  unfold lowerArray
  split
  · exact .wrap (fun _ => rfl) (hl _ _ (owned_child_called name _))
  · exact .wrap (fun _ => rfl) (hl _ _ (owned_child_called name _))
  · exact .pure rfl

theorem lowerKind_calls (hl : CallsAll lower) (kind : String) (ms : Members)
    (hname : ∀ n ∈ name.owned, IsName n.toList) : Calls (lowerKind lower kind ms name) := by
  unfold lowerKind
  split
  case h_2 => exact .pure (by split <;> rfl)
  case h_6 => exact lowerArray_calls hl ms name
  case h_7 => exact lowerObject_calls hl ms hname
  all_goals exact .pure rfl

theorem lowerByType_calls (hl : CallsAll lower) (ms : Members)
    (hname : ∀ n ∈ name.owned, IsName n.toList) : Calls (lowerByType lower ms name) := by
  unfold lowerByType
  split
  · exact lowerKind_calls hl _ ms hname
  · exact lowerAlternatives_calls (fun kind name => lowerKind_calls hl kind ms) ms hname _ _
  · split
    · exact lowerObject_calls hl ms hname
    · split
      · exact lowerArray_calls hl ms name
      · exact .pure rfl

theorem lowerComposed_calls (hl : CallsAll lower) (ms : Members)
    (hname : ∀ n ∈ name.owned, IsName n.toList) : Calls (lowerComposed root lower ms name) := by
  unfold lowerComposed
  split
  · unfold lowerAllOf
    split
    · exact hl _ name hname
    · exact .pure rfl
  · split
    · exact lowerAlternatives_calls hl ms hname _ _
    · exact lowerByType_calls hl ms hname

/-! ## References -/

theorem nodeName_called {p : Pointer} {n : String} (h : s.Called)
    (hrun : Yields (nodeName p) s n t) : t.Called ∧ IsName n.toList := by
  unfold nodeName at hrun
  obtain ⟨_, _, hget, hrun⟩ := hrun.bind
  cases hget
  split at hrun
  · rename_i hl
    obtain ⟨rfl, rfl⟩ := hrun.pure
    obtain ⟨before, after, hsplit, -⟩ := List.lookup_eq_some_iff.mp hl
    exact ⟨h, h.named (p, n) (by simp [hsplit])⟩
  · obtain ⟨m, u, hclaim, hrun⟩ := hrun.bind
    obtain ⟨_, v, hset, hrun⟩ := hrun.bind
    obtain ⟨rfl, rfl⟩ := hrun.pure
    obtain ⟨hu, hn⟩ := claimName_called h (IsWord.typeIdent _).isName hclaim
    obtain rfl := modify_yields hset
    exact ⟨⟨hu.items, List.forall_mem_cons.mpr ⟨hn, hu.named⟩⟩, hn⟩

theorem lowerNamed_called (hl : CallsAll lower) {schema : Json} {n : String} {ty : Ty}
    (h : s.Called) (hn : IsName n.toList) (hrun : Yields (lowerNamed lower schema n) s ty t) :
    t.Called ∧ ty.Called := by
  obtain ⟨slot, s₁, hopen, hrun⟩ := hrun.bind
  obtain ⟨ty', u, htype, hrun⟩ := hrun.bind
  have howned : ∀ m ∈ (ItemName.exact n).owned, IsName m.toList := by
    intro m hm
    rwa [List.mem_singleton.mp hm]
  obtain ⟨hu, hty⟩ := (hl schema (.exact n) howned).called (openSlot_called h hopen) htype
  by_cases heq : ty' = .named n
  · simp only [heq, ne_eq, not_true_eq_false, if_false] at hrun
    obtain ⟨rfl, rfl⟩ := hrun.pure
    exact ⟨hu, .named hn⟩
  · simp only [ne_eq, heq, not_false_eq_true, if_true] at hrun
    obtain ⟨_, v, hfill, hrun⟩ := hrun.bind
    obtain ⟨rfl, rfl⟩ := hrun.pure
    have hx : Item.Called ⟨n, description schema, .alias ty'⟩ := by
      refine ⟨hn, fun m hm => ?_, fun ty hm => ?_⟩
      · cases hm
      · rwa [List.mem_singleton.mp hm]
    exact ⟨fill_called hu hx hfill, .named hn⟩

theorem lowerReference_calls (hl : CallsAll lower) (reference : String) :
    Calls (lowerReference root lower reference) := by
  cases ht : localTarget? root reference with
  | none =>
    have hrun : lowerReference root lower reference = pure .any := by
      simp only [lowerReference, ht]
    rw [hrun]
    exact .pure rfl
  | some found =>
    obtain ⟨p, target⟩ := found
    rw [lowerReference_eq ht]
    refine ⟨fun {s ty t} hs hrun => ?_⟩
    obtain ⟨n, u, hnode, hrun⟩ := hrun.bind
    obtain ⟨hu, hn⟩ := nodeName_called hs hnode
    rcases lowerTarget_yields hrun with ⟨-, rfl, rfl⟩ | ⟨-, rfl, rfl⟩ | ⟨-, -, v, hnamed, rfl⟩
    · exact ⟨hu, (Ty.Called.named hn).of_names rfl⟩
    · exact ⟨hu, .named hn⟩
    · obtain ⟨hv, hty⟩ := lowerNamed_called hl (s := { u with inProgress := p :: u.inProgress })
        ⟨hu.items, hu.named⟩ hn hnamed
      exact ⟨⟨hv.items, hv.named⟩, hty⟩

theorem lowerMembers_calls (hl : CallsAll lower) (ms : Members)
    (hname : ∀ n ∈ name.owned, IsName n.toList) : Calls (lowerMembers root lower ms name) := by
  unfold lowerMembers
  split
  · exact lowerReference_calls hl _
  · split
    · exact .pure (names_constantType _)
    · split
      · exact lowerEnum_calls _ ms hname
      · exact lowerComposed_calls hl ms hname

end Parts

theorem lower_calls (root : Option Json) (depth : Nat) : CallsAll (lower root depth) := by
  induction depth with
  | zero => exact fun v name hname => ⟨fun _ hrun => nomatch hrun⟩
  | succ depth ih =>
    intro v name hname
    cases v with
    | object ms => exact lowerMembers_calls ih ms hname
    | _ => exact .pure rfl

/-! ## Whole compilations -/

theorem empty_called : LowerState.empty.Called :=
  ⟨(fun _ hx => nomatch hx), fun _ he => nomatch he⟩

theorem bind_called {p : Pointer} {n : String} {a : Unit} (h : s.Called) (hn : IsName n.toList)
    (hrun : Yields (bind p n) s a t) : t.Called := by
  obtain ⟨_, u, hreserve, hrun⟩ := hrun.bind
  obtain rfl := modify_yields hreserve
  obtain rfl := modify_yields hrun
  exact ⟨h.items, List.forall_mem_cons.mpr ⟨hn, h.named⟩⟩

theorem lowerRoot_called {depth : Nat} {schema : Json} {n : String} {ty : Ty} (h : s.Called)
    (hn : IsName n.toList) (hrun : Yields (lowerRoot root depth schema n) s ty t) : t.Called := by
  obtain ⟨_, u, hreserve, hrun⟩ := hrun.bind
  obtain rfl := modify_yields hreserve
  have hreserved : LowerState.Called { s with scope := s.scope.reserve n } := ⟨h.items, h.named⟩
  exact (lowerNamed_called (lower_calls root depth) hreserved hn hrun).1

theorem lowerPointer_called {depth : Nat} {p : Pointer} {ty : Ty} (h : s.Called)
    (hrun : Yields (lowerPointer root depth p) s ty t) : t.Called :=
  ((lowerReference_calls (lower_calls root depth) _).called h hrun).1

/-- What can be compiled one after the other, each thing under a name. -/
inductive Compiled (root : Option Json) : LowerState → Prop where
  | empty : Compiled root .empty
  | bind {s t : LowerState} {p : Pointer} {n : String} {a : Unit} (h : Compiled root s)
      (hn : IsName n.toList) (hrun : Yields (Lowering.bind p n) s a t) : Compiled root t
  | schema {s t : LowerState} {depth : Nat} {v : Json} {n : String} {ty : Ty} (h : Compiled root s)
      (hn : IsName n.toList) (hrun : Yields (lowerRoot root depth v n) s ty t) : Compiled root t
  | pointer {s t : LowerState} {depth : Nat} {p : Pointer} {ty : Ty} (h : Compiled root s)
      (hrun : Yields (lowerPointer root depth p) s ty t) : Compiled root t

theorem Compiled.called (h : Compiled root s) : s.Called := by
  induction h with
  | empty => exact empty_called
  | bind _ hn hrun ih => exact bind_called ih hn hrun
  | schema _ hn hrun ih => exact lowerRoot_called ih hn hrun
  | pointer _ hrun ih => exact lowerPointer_called ih hrun

/-- The items for a schema are compiled under the name of a type. -/
theorem compiled_of_lowerTypeModule {canonical : String} {schema : Json} {items : List Item}
    (h : lowerTypeModule canonical schema = some items) :
    ∃ s, Compiled none s ∧ s.items = items := by
  obtain ⟨⟨ty, t⟩, hrun, hitems⟩ := Option.map_eq_some_iff.mp h
  exact ⟨t, .schema .empty (IsWord.typeIdent canonical).isName hrun, hitems⟩

theorem forM_compiled {members : List BundleMember} {act : BundleMember → LowerM Unit} {a : Unit}
    (hact : ∀ m {s t : LowerState} {a : Unit},
      Compiled root s → Yields (act m) s a t → Compiled root t)
    (h : Compiled root s) (hrun : Yields (members.forM act) s a t) : Compiled root t := by
  induction members generalizing s with
  | nil =>
    obtain ⟨-, rfl⟩ := hrun.pure
    exact h
  | cons m members ih =>
    obtain ⟨_, u, hfirst, hrun⟩ := hrun.bind
    exact ih (hact m h hfirst) hrun

/-- The items for a bundle are compiled after all members have got the names of types. -/
theorem compiled_of_lowerBundle {b : Bundle} {items : List Item} (h : lowerBundle b = some items) :
    ∃ s, Compiled (some b.document) s ∧ s.items = items := by
  obtain ⟨t, hrun, hitems⟩ := lowerBundle_eq_some h
  obtain ⟨_, u, hbind, hlower⟩ := hrun.bind
  have hbound : Compiled (some b.document) u := forM_compiled
    (fun m {s t a} hs hone => hs.bind (IsWord.typeIdent m.canonicalName).isName hone)
    .empty hbind
  refine ⟨t, forM_compiled (fun m {s t a} hs hone => ?_) hbound hlower, hitems⟩
  obtain ⟨ty, hone, -⟩ := hone.some
  exact hs.pointer hone

end Lowering

end SchemaBindings
